import TemplateManifest.Proofs.Compile.Inventory
import TemplateManifest.Proofs.Compile.Scope
import TemplateManifest.Proofs.Compile.Written
import TemplateManifest.Proofs.Template.Walk

/-!
What code generation does with the nodes of a tree: it visits some of them, and leaves the others to
the functions of the blocks that it meets. What the emitted code holds is what the visited nodes add
to it.
-/

namespace TemplateManifest

open Script Vocabulary

namespace Node

/-- The name of the filter that a node applies. -/
def filterName? : Node → Option String
  | filter _ name _ _ _ => some name
  | _ => none

/-- How a node names the extension that it calls. -/
def site? : Node → Option Site
  | extensionCall _ site _ _ _ _ _ => some site
  | _ => none

/-- The named block that a node is. -/
def block? : Node → Option PendingBlock
  | block _ name body => some ⟨name, body⟩
  | _ => none

end Node

namespace CodeContext

/-- The calls that are awaited when a template is included: the one that loads it and, unless it is
    the parent, the one that renders or exports it. -/
def inclusionWaits (cx : CodeContext) : Inclusion → Multiset Feature
  | .parent => waits cx.isAsync none
  | _ => waits cx.isAsync none + waits cx.isAsync none

/-- What a node adds to emitted code besides what its children add. -/
def own (cx : CodeContext) : Node → Multiset Feature
  | .filter _ name _ _ _ =>
    waits (cx.filterIsAsync? name = some true) (some (.filter name)) + {.fetch (.filter name)}
  | .extensionCall _ site _ _ _ bodies isAsync =>
    match cx.env.extension? site with
    | none => 0
    | some e =>
      waits (isAsync || e.form.isAsync) (some (.extension e.name)) + {.fetch (.extension e.name)} +
        Multiset.replicate bodies.length (.function cx.isAsync)
  | .macroDef _ _ _ _ | .callerBody _ _ _ => {.function cx.isAsync}
  | .capture _ _ => waits cx.isAsync none + {.function cx.isAsync}
  | .block _ _ _ => waits cx.isAsync none
  | .inclusion _ form _ => cx.inclusionWaits form
  | _ => 0

/-- The filter that the node applies and the extension that it calls are known. -/
structure Accepts (cx : CodeContext) (node : Node) : Prop where
  filter : ∀ name ∈ node.filterName?, (cx.filterIsAsync? name).isSome = true
  site : ∀ site ∈ node.site?, (cx.env.extension? site).isSome = true

theorem Accepts.of_none {cx : CodeContext} {node : Node} (hfilter : node.filterName? = none)
    (hsite : node.site? = none) : cx.Accepts node :=
  ⟨by simp [hfilter], by simp [hsite]⟩

/-- Of some trees, the nodes that have been visited and the blocks that are left to later. -/
structure Visits (cx : CodeContext) (nodes : List Node) (items : Multiset Feature)
    (visited : Multiset Node) (later : List PendingBlock) : Prop where
  census : Node.census nodes = visited + (later.map fun b => Node.census b.body).sum
  items : items = visited.bind cx.own
  blocks : (later : Multiset PendingBlock) = visited.filterMap Node.block?
  accepts : ∀ node ∈ visited, cx.Accepts node

namespace Visits

variable {cx : CodeContext} {root : Node} {nodes nodes' : List Node} {items items' : Multiset Feature}
  {visited visited' : Multiset Node} {later later' : List PendingBlock}

theorem nil : cx.Visits [] 0 0 [] :=
  ⟨rfl, rfl, rfl, by simp⟩

theorem append (h : cx.Visits nodes items visited later)
    (h' : cx.Visits nodes' items' visited' later') :
    cx.Visits (nodes ++ nodes') (items + items') (visited + visited') (later ++ later') where
  census := by
    rw [Node.census_append, h.census, h'.census, List.map_append, List.sum_append]
    exact add_add_add_comm _ _ _ _
  items := by rw [h.items, h'.items, Multiset.add_bind]
  blocks := by rw [← Multiset.coe_add, h.blocks, h'.blocks, Multiset.filterMap_add]
  accepts node hnode := (Multiset.mem_add.mp hnode).elim (h.accepts node) (h'.accepts node)

/-- A node is visited before its children. -/
theorem node (haccepts : cx.Accepts root) (hblock : root.block? = none)
    (h : cx.Visits root.children items visited later) :
    cx.Visits [root] (cx.own root + items) (root ::ₘ visited) later where
  census := by
    rw [Node.census_cons, Node.census_nil, add_zero, h.census, Multiset.cons_add]
  items := by rw [h.items, Multiset.cons_bind]
  blocks := by rw [h.blocks, Multiset.filterMap_cons_none _ _ hblock]
  accepts := by
    simp only [Multiset.mem_cons, forall_eq_or_imp]
    exact ⟨haccepts, h.accepts⟩

/-- A block is visited and its body is not. -/
theorem block {pos : Position} {name : String} {body : List Node} :
    cx.Visits [.block pos name body] (cx.own (.block pos name body)) {.block pos name body}
      [⟨name, body⟩] where
  census := by
    rw [Node.census_cons, Node.census_nil, add_zero, List.map_singleton, List.sum_singleton,
      Multiset.singleton_add]
    rfl
  items := (Multiset.singleton_bind _ _).symm
  blocks := rfl
  accepts := by
    simp only [Multiset.mem_singleton, forall_eq]
    exact .of_none rfl rfl

end Visits

end CodeContext

namespace Coder

variable {α β : Type}

/-- A step of code generation visits some nodes. What the visited nodes add brings what has been
    counted from `before` to what it is after the value. -/
def Gathers (step : Coder α) (cx : CodeContext) (before : Multiset Feature) (nodes : List Node)
    (after : α → Multiset Feature) : Prop :=
  ∀ s a t, step s = .ok a t → ∃ items visited later, cx.Visits nodes items visited later ∧
    t.pending = s.pending ++ later ∧ after a = before + items

section

variable {step : Coder α} {cx : CodeContext} {m : Multiset Feature} {nodes nodes' : List Node}
  {f : α → Multiset Feature} {g : β → Multiset Feature}

theorem Gathers.bind {next : α → Coder β} (h : step.Gathers cx m nodes f)
    (hnext : ∀ a, (next a).Gathers cx (f a) nodes' g) :
    Gathers (step >>= next) cx m (nodes ++ nodes') g := by
  intro s b t hstep
  obtain ⟨a, u, ha, hb⟩ := bind_eq_ok_iff.mp hstep
  obtain ⟨items, visited, later, hvisits, hpending, hf⟩ := h s a u ha
  obtain ⟨items', visited', later', hvisits', hpending', hg⟩ := hnext a u b t hb
  exact ⟨_, _, _, hvisits.append hvisits', by rw [hpending', hpending, List.append_assoc],
    by rw [hg, hf, add_assoc]⟩

theorem gathers_pure {a : α} (h : f a = m) : (pure a : Coder α).Gathers cx m [] f := by
  intro s b t hstep
  obtain ⟨rfl, rfl⟩ := pure_eq_ok_iff.mp hstep
  exact ⟨_, _, _, .nil, (List.append_nil _).symm, by rw [h, add_zero]⟩

/-- What comes after a step visits no more nodes. -/
theorem Gathers.bind_last {next : α → Coder β} (h : step.Gathers cx m nodes f)
    (hnext : ∀ a, (next a).Gathers cx (f a) [] g) : Gathers (step >>= next) cx m nodes g := by
  have hbind := h.bind hnext
  rwa [List.append_nil] at hbind

/-- A value is put together of what a step gives. -/
theorem Gathers.bind_pure {k : α → β} (h : step.Gathers cx m nodes f) (hg : ∀ a, g (k a) = f a) :
    Gathers (step >>= fun a => pure (k a)) cx m nodes g :=
  h.bind_last fun a => gathers_pure (hg a)

theorem gathers_throw (fault : CompileFault) : (throw fault : Coder α).Gathers cx m nodes f :=
  fun _ _ _ h => absurd h throw_ne_ok

/-- A step that visits no node and keeps the blocks. -/
theorem gathers_of_keeps (h : ∀ s a t, step s = .ok a t → t.pending = s.pending) :
    step.Gathers cx m [] fun _ => m :=
  fun s a t hstep =>
    ⟨_, _, _, .nil, by rw [h s a t hstep, List.append_nil], (add_zero m).symm⟩

theorem Gathers.of_eq {m' : Multiset Feature} (hm : m' = m) (h : step.Gathers cx m nodes f) :
    step.Gathers cx m' nodes f :=
  hm ▸ h

/-- What is known of the value of a step may be used after it. -/
theorem Gathers.bind_of {P : α → Prop} {next : α → Coder β} (h : step.Gathers cx m nodes f)
    (hP : ∀ s a t, step s = .ok a t → P a) (hnext : ∀ a, P a → (next a).Gathers cx (f a) nodes' g) :
    Gathers (step >>= next) cx m (nodes ++ nodes') g := by
  intro s b t hstep
  obtain ⟨a, u, ha, hb⟩ := bind_eq_ok_iff.mp hstep
  obtain ⟨items, visited, later, hvisits, hpending, hf⟩ := h s a u ha
  obtain ⟨items', visited', later', hvisits', hpending', hg⟩ := hnext a (hP s a u ha) u b t hb
  exact ⟨_, _, _, hvisits.append hvisits', by rw [hpending', hpending, List.append_assoc],
    by rw [hg, hf, add_assoc]⟩

theorem Gathers.inScope (h : step.Gathers cx m nodes f) :
    Gathers (Coder.inScope step) cx m nodes f := by
  intro s a t hscope
  obtain ⟨u, hstep, rfl⟩ := inScope_eq_ok_iff.mp hscope
  exact h { s with scopes := [] :: s.scopes } a u hstep

theorem Gathers.isolated (h : step.Gathers cx m nodes f) :
    Gathers (Coder.isolated step) cx m nodes f := by
  intro s a t hisolated
  obtain ⟨u, hstep, rfl⟩ := isolated_eq_ok_iff.mp hisolated
  exact h { s with scopes := [[]] } a u hstep

theorem Gathers.node {node : Node} (haccepts : cx.Accepts node) (hblock : node.block? = none)
    (h : step.Gathers cx (m + cx.own node) node.children f) : step.Gathers cx m [node] f := by
  intro s a t hstep
  obtain ⟨items, visited, later, hvisits, hpending, hf⟩ := h s a t hstep
  exact ⟨_, _, _, .node haccepts hblock hvisits, hpending, by rw [hf, add_assoc]⟩

/-- A node whose code is that of its children. -/
theorem Gathers.plain {node : Node} (haccepts : cx.Accepts node) (hblock : node.block? = none)
    (hown : cx.own node = 0) (h : step.Gathers cx m node.children f) :
    step.Gathers cx m [node] f :=
  .node haccepts hblock (by rwa [hown, add_zero])

/-- A node without code does not count. -/
theorem Gathers.cons {node : Node} (haccepts : cx.Accepts node) (hblock : node.block? = none)
    (hown : cx.own node = 0) (hchildren : node.children = []) (h : step.Gathers cx m nodes f) :
    step.Gathers cx m (node :: nodes) f := by
  have hnode : (pure () : Coder Unit).Gathers cx m [node] fun _ => m :=
    .plain haccepts hblock hown (hchildren ▸ gathers_pure rfl)
  simpa using hnode.bind fun _ => h

end

section

variable {cx : CodeContext} {m : Multiset Feature}

theorem gathers_fresh : fresh.Gathers cx m [] fun _ => m :=
  gathers_of_keeps fun _ _ _ h => by
    cases h
    rfl

theorem gathers_freshAll (count : Nat) : (freshAll count).Gathers cx m [] fun _ => m :=
  gathers_of_keeps fun _ _ _ h => by rw [(freshAll_eq_ok h).2]

theorem gathers_holder? (symbol : String) : (holder? symbol).Gathers cx m [] fun _ => m :=
  gathers_of_keeps fun _ _ _ h => by
    cases h
    rfl

theorem gathers_variablesFor (symbols : List String) :
    (variablesFor symbols).Gathers cx m [] fun _ => m :=
  gathers_of_keeps fun _ _ _ h => by rw [variablesFor_keeps h]

theorem gathers_bind (symbol : String) (v : Variable) :
    (Coder.bind symbol v).Gathers cx m [] fun _ => m :=
  gathers_of_keeps fun _ _ _ h => (bind_keeps h).2.1

theorem gathers_bindAll (entries : List (String × Variable)) :
    (bindAll entries).Gathers cx m [] fun _ => m :=
  gathers_of_keeps fun _ _ _ h => (bindAll_keeps h).2.1

theorem gathers_addBlock (pos : Position) (name : String) (body : List Node) :
    (addBlock ⟨name, body⟩).Gathers cx m [.block pos name body] fun _ =>
      m + cx.own (.block pos name body) := by
  intro s a t h
  rw [← modify_eq_ok_iff.mp h]
  exact ⟨_, _, _, .block, rfl, rfl⟩

end

end Coder

end TemplateManifest
