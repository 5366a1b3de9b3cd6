import TemplateManifest.Compile.Source
import TemplateManifest.Proofs.Compile.Gathering
import TemplateManifest.Proofs.Steps

/-!
Asynchronous code: the functions of a module are asynchronous, and its calls are awaited, exactly when
the template has a call of an addon that must be awaited. Main statement:
`Template.asynchrony_compile`.
-/

namespace TemplateManifest

open Script Vocabulary

/-- The addon of an awaited call. -/
def Script.Feature.awaited? : Feature → Option Fetch
  | .await called => called
  | .fetch _ | .function _ => none

theorem Script.Expr.item?_eq_some_await {e : Expr} {called : Option Fetch} :
    e.item? = some (.await called) ↔ ∃ promise, e = .await promise ∧ promise.called? = called := by
  constructor
  · intro h
    unfold Expr.item? at h
    split at h
    · next promise => exact ⟨promise, rfl, by simpa using h⟩
    · cases h
    · simp at h
  · rintro ⟨promise, rfl, rfl⟩
    rfl

/-- The addon that a node calls and that must be awaited there: because the addon is asynchronous or,
    for an extension, because the call is. -/
def Node.awaitedAddon? (env : Environment) : Node → Option Fetch
  | .filter _ name _ _ _ =>
    if (env.filter? name).any fun f => f.isAsync then some (.filter name) else none
  | .extensionCall _ site _ _ _ _ isAsync =>
    (env.extension? site).bind fun e =>
      if isAsync || e.form.isAsync then some (.extension e.name) else none
  | _ => none

namespace CodeContext

variable {cx : CodeContext} {node : Node}

theorem filterIsAsync?_eq_some_true {name : String} :
    cx.filterIsAsync? name = some true ↔
      ((cx.env.filter? name).any fun f => f.isAsync) = true := by
  unfold filterIsAsync?
  split
  · next f hf => simp [hf]
  · next hnone =>
    rw [hnone]
    split <;> simp

/-- A known addon must be awaited where the node that calls it must be. -/
theorem Accepts.isSome_awaitedAddon? (h : cx.Accepts node) :
    (node.awaitedAddon? cx.env).isSome = node.isAwaited cx.env := by
  cases node with
  | filter pos name target args kwargs =>
    simp only [Node.awaitedAddon?, Node.isAwaited]
    cases (cx.env.filter? name).any fun f => f.isAsync <;> rfl
  | extensionCall pos site method args kwargs bodies isAsync =>
    obtain ⟨e, he⟩ := Option.isSome_iff_exists.mp (h.site site rfl)
    simp only [Node.awaitedAddon?, Node.isAwaited, he, Option.bind_some, Option.any_some]
    cases isAsync || e.form.isAsync <;> rfl
  | _ => rfl

theorem filterMap_awaited?_waits (isAsync : Bool) (called : Option Fetch) :
    (waits isAsync called).filterMap Feature.awaited? =
      ((if isAsync then called else none).toList : List Fetch) := by
  cases isAsync <;> cases called <;> rfl

/-- The awaited addon calls in the code of a node are the one that the node must await. -/
theorem filterMap_awaited?_own :
    (cx.own node).filterMap Feature.awaited? = ((node.awaitedAddon? cx.env).toList : List Fetch) := by
  cases node with
  | filter pos name target args kwargs =>
    rw [own, Multiset.filterMap_add, filterMap_awaited?_waits, Node.awaitedAddon?]
    simp only [filterIsAsync?_eq_some_true, decide_eq_true_eq]
    exact add_zero _
  | extensionCall pos site method args kwargs bodies isAsync =>
    rw [own, Node.awaitedAddon?]
    cases cx.env.extension? site with
    | none => rfl
    | some e =>
      have hbodies : (Multiset.replicate bodies.length (Feature.function cx.isAsync)).filterMap
          Feature.awaited? = 0 := by
        refine Multiset.eq_zero_of_forall_notMem fun addon haddon => ?_
        obtain ⟨item, hitem, hawaited⟩ := (Multiset.mem_filterMap _ _).mp haddon
        rw [Multiset.eq_of_mem_replicate hitem] at hawaited
        cases hawaited
      rw [Multiset.filterMap_add, Multiset.filterMap_add, filterMap_awaited?_waits, hbodies, add_zero]
      exact add_zero _
  | inclusion pos form template =>
    have hwaits : (waits cx.isAsync none).filterMap Feature.awaited? = 0 := by
      rw [filterMap_awaited?_waits]
      cases cx.isAsync <;> rfl
    cases form <;> simp only [own, inclusionWaits, Multiset.filterMap_add, hwaits, add_zero] <;> rfl
  | capture | block =>
    rw [own]
    cases cx.isAsync <;> rfl
  | _ => rfl

theorem mem_waits {item : Feature} {isAsync : Bool} {called : Option Fetch} :
    item ∈ waits isAsync called ↔ isAsync = true ∧ item = .await called := by
  cases isAsync <;> simp [waits]

/-- Functions are asynchronous as the whole module is. -/
theorem isAsync_of_function_mem_own {isAsync : Bool} (h : .function isAsync ∈ cx.own node) :
    isAsync = cx.isAsync := by
  cases node with
  | extensionCall pos site method args kwargs bodies isAsync' =>
    rw [own] at h
    split at h
    · cases h
    · simp [mem_waits, Multiset.mem_replicate] at h
      exact h.2
  | inclusion pos form template => cases form <;> simp [own, inclusionWaits, mem_waits] at h
  | filter | block => simp [own, mem_waits] at h
  | capture | macroDef | callerBody => simpa [own, mem_waits] using h
  | _ => cases h

/-- A call is awaited only in an asynchronous module, or if it is one of an addon that must be
    awaited. -/
theorem isAsync_or_of_await_mem_own {called : Option Fetch} (h : .await called ∈ cx.own node) :
    cx.isAsync = true ∨ (node.awaitedAddon? cx.env).isSome = true := by
  cases called with
  | some addon =>
    have hmem : addon ∈ (cx.own node).filterMap Feature.awaited? :=
      (Multiset.mem_filterMap _ _).mpr ⟨_, h, rfl⟩
    rw [filterMap_awaited?_own, Multiset.mem_coe, Option.mem_toList] at hmem
    exact .inr (Option.isSome_iff_exists.mpr ⟨addon, hmem⟩)
  | none =>
    left
    cases node with
    | extensionCall pos site method args kwargs bodies isAsync' =>
      rw [own] at h
      split at h
      · cases h
      · simp [mem_waits, Multiset.mem_replicate] at h
    | inclusion pos form template =>
      cases form <;> (simp [own, inclusionWaits, mem_waits] at h; exact h)
    | filter | macroDef | callerBody => simp [own, mem_waits] at h
    | capture | block => simpa [own, mem_waits] using h
    | _ => cases h

end CodeContext

theorem Template.isAsync_compile {template : Template} {env : Environment} {moduleVar : String}
    {module : Module} (h : template.compile env moduleVar = .ok module) :
    module.isAsync = template.requiresAsync env := by
  obtain ⟨-, root, s, blocks, t, -, -, rfl⟩ := Template.compile_eq_ok_iff.mp h
  rfl

/-- The addons whose calls are awaited in the module are those of the nodes that must await them, one
    for one. -/
theorem Template.awaited_compile {template : Template} {env : Environment} {moduleVar : String}
    {module : Module} (h : template.compile env moduleVar = .ok module) :
    (inventory module.parts).filterMap Feature.awaited? =
      (Node.census template.body).filterMap (Node.awaitedAddon? env) := by
  obtain ⟨hinventory, -⟩ := Template.inventory_compile h
  rw [hinventory, Multiset.filterMap_add, CodeContext.filterMap_awaited?_waits,
    Multiset.filterMap_bind, Multiset.filterMap_eq_bind]
  simp only [CodeContext.filterMap_awaited?_own, ite_self, Option.toList_none, Multiset.coe_nil,
    zero_add]
  refine Multiset.bind_congr fun node _ => ?_
  cases node.awaitedAddon? env <;> rfl

section

variable {template : Template} {env : Environment} {moduleVar : String} {module : Module}
  (h : template.compile env moduleVar = .ok module)

include h

/-- A template must await calls if and only if one of its nodes calls an addon that must be awaited. -/
theorem Template.requiresAsync_iff :
    template.requiresAsync env = true ↔
      ∃ node ∈ template.walk, (node.awaitedAddon? env).isSome = true := by
  obtain ⟨-, haccepts, -⟩ := Template.inventory_compile h
  rw [Template.requiresAsync, List.any_eq_true]
  refine exists_congr fun node => and_congr_right fun hnode => ?_
  rw [(haccepts node hnode).isSome_awaitedAddon?]

/-- All functions of a module are asynchronous if and only if the template must await calls. -/
theorem Template.isAsync_of_function_mem_parts {isAsync : Bool} {params : List Variable}
    {body : List Stmt} (hfunction : .function isAsync params body ∈ module.parts) :
    isAsync = template.requiresAsync env := by
  obtain ⟨hinventory, -⟩ := Template.inventory_compile h
  have hitem : .function isAsync ∈ inventory module.parts := mem_inventory.mpr ⟨_, hfunction, rfl⟩
  rw [hinventory, Multiset.mem_add, CodeContext.mem_waits, Multiset.mem_bind] at hitem
  obtain ⟨-, hitem⟩ | ⟨node, -, hitem⟩ := hitem
  · cases hitem
  · exact CodeContext.isAsync_of_function_mem_own hitem

/-- A module awaits something only if the template must await calls. -/
theorem Template.requiresAsync_of_await_mem_parts {promise : Expr}
    (hawait : .await promise ∈ module.parts) : template.requiresAsync env = true := by
  obtain ⟨hinventory, -⟩ := Template.inventory_compile h
  have hitem : .await promise.called? ∈ inventory module.parts := mem_inventory.mpr ⟨_, hawait, rfl⟩
  rw [hinventory, Multiset.mem_add, CodeContext.mem_waits, Multiset.mem_bind] at hitem
  obtain ⟨hasync, -⟩ | ⟨node, hnode, hitem⟩ := hitem
  · exact hasync
  · obtain hasync | haddon := CodeContext.isAsync_or_of_await_mem_own hitem
    · exact hasync
    · exact (Template.requiresAsync_iff h).mpr ⟨node, Node.mem_census.mp hnode, haddon⟩

/-- A module awaits a call of an addon if and only if a node of the template must await it. -/
theorem Template.await_mem_parts_iff {addon : Fetch} :
    (∃ promise, .await promise ∈ module.parts ∧ promise.called? = some addon) ↔
      ∃ node ∈ template.walk, node.awaitedAddon? env = some addon := by
  have hawaited := congrArg (addon ∈ ·) (Template.awaited_compile h)
  simp only [Multiset.mem_filterMap, mem_inventory, Node.mem_census, eq_iff_iff] at hawaited
  refine Iff.trans ⟨?_, ?_⟩ hawaited
  · rintro ⟨promise, hpromise, hcalled⟩
    exact ⟨.await promise.called?, ⟨_, hpromise, rfl⟩, hcalled⟩
  · rintro ⟨item, ⟨e, he, hitem⟩, hcalled⟩
    cases item with
    | await called =>
      obtain ⟨promise, rfl, rfl⟩ := Expr.item?_eq_some_await.mp hitem
      exact ⟨promise, he, hcalled⟩
    | fetch | function => cases hcalled

end

/-- A compiled template waits for something only in asynchronous functions: if anything is awaited,
    all functions are asynchronous, those of the template and of its blocks and those of macros, call
    blocks and bodies. If the template needs no asynchronous code, nothing is awaited and no function
    is asynchronous. It needs it exactly when the call of an addon is awaited, and awaited are those
    calls, one for one, whose addon or whose call itself is asynchronous. -/
theorem Template.asynchrony_compile {template : Template} {env : Environment} {moduleVar : String}
    {module : Module} (h : template.compile env moduleVar = .ok module) :
    ((∃ promise, .await promise ∈ module.parts) → module.isAsync = true ∧
      ∀ isAsync params body, .function isAsync params body ∈ module.parts → isAsync = true) ∧
    (template.requiresAsync env = false → module.isAsync = false ∧
      (∀ promise, .await promise ∉ module.parts) ∧
      ∀ params body, .function true params body ∉ module.parts) ∧
    (template.requiresAsync env = true ↔
      ∃ promise addon, .await promise ∈ module.parts ∧ promise.called? = some addon) ∧
    (inventory module.parts).filterMap Feature.awaited? =
      (Node.census template.body).filterMap (Node.awaitedAddon? env) := by
  refine ⟨?_, fun hplain => ⟨?_, fun promise hawait => ?_, fun params body hfunction => ?_⟩, ?_,
    Template.awaited_compile h⟩
  · rintro ⟨promise, hawait⟩
    have hasync := Template.requiresAsync_of_await_mem_parts h hawait
    exact ⟨(Template.isAsync_compile h).trans hasync, fun isAsync params body hfunction =>
      (Template.isAsync_of_function_mem_parts h hfunction).trans hasync⟩
  · rw [Template.isAsync_compile h, hplain]
  · rw [Template.requiresAsync_of_await_mem_parts h hawait] at hplain
    cases hplain
  · have hasync := Template.isAsync_of_function_mem_parts h hfunction
    rw [hplain] at hasync
    cases hasync
  · rw [Template.requiresAsync_iff h]
    simp only [Option.isSome_iff_exists]
    constructor
    · rintro ⟨node, hnode, addon, haddon⟩
      obtain ⟨promise, hpromise, hcalled⟩ :=
        (Template.await_mem_parts_iff h).mpr ⟨node, hnode, haddon⟩
      exact ⟨promise, addon, hpromise, hcalled⟩
    · rintro ⟨promise, addon, hpromise, hcalled⟩
      obtain ⟨node, hnode, haddon⟩ :=
        (Template.await_mem_parts_iff h).mp ⟨promise, hpromise, hcalled⟩
      exact ⟨node, hnode, addon, haddon⟩

/-- The filter in the default of a parameter is asynchronous, and so the code of the macro awaits it. -/
theorem Template.asynchrony_compile_filter_in_default :
    let env : Environment := { filters := [⟨"slow", ⟨"/f.js"⟩, ⟨"0"⟩, true⟩] }
    let source := "\x7b% macro m(x=1|slow) %\x7d\x7b% endmacro %\x7d"
    ∃ template module, Template.ofSource env "t.njk" source = .ok template ∧
      template.compile env "template" = .ok module ∧ module.isAsync = true ∧
      ∃ promise addon, .await promise ∈ module.parts ∧ promise.called? = some addon := by
  intro env source
  have hfound : (Template.ofSource env "t.njk" source).toOption.any fun template =>
      (template.compile env "template").toOption.any fun _ => template.requiresAsync env := by
    decide +kernel
  obtain ⟨template, htemplate, hfound⟩ := exists_eq_ok_of_any hfound
  obtain ⟨module, hmodule, hasync⟩ := exists_eq_ok_of_any hfound
  obtain ⟨hall, -, hrequires, -⟩ := Template.asynchrony_compile hmodule
  obtain ⟨promise, addon, hawait, hcalled⟩ := hrequires.mp hasync
  exact ⟨template, module, htemplate, hmodule, (hall ⟨promise, hawait⟩).1, promise, addon, hawait, hcalled⟩

end TemplateManifest
