import Mathlib.Algebra.Order.Group.Multiset
import TemplateManifest.Compile.Code
import TemplateManifest.Proofs.Script.Parts

/-!
What stands in emitted code as far as addons and waiting are concerned: the places where an addon is
fetched, the awaited calls, and the functions. Each is told from one expression alone, so that the
inventory of some code is that of all its parts.
-/

namespace TemplateManifest

open Vocabulary

/-- The expression that fetches a filter. -/
def Vocabulary.getFilter (addon : String) : Script.Expr :=
  method (name "env") "getFilter" [.string addon]

/-- The expression that fetches an extension. -/
def Vocabulary.getExtension (addon : String) : Script.Expr :=
  method (name "env") "getExtension" [.string addon]

namespace Script

/-- An addon that is fetched by its name. -/
inductive Fetch where
  | filter (addon : String)
  | extension (addon : String)
deriving DecidableEq, Repr

/-- What is counted in emitted code. -/
inductive Feature where
  /-- An addon is fetched. -/
  | fetch (addon : Fetch)
  /-- A call is awaited. It comes with the addon that is called, if the called function belongs to
      an addon fetched right there. -/
  | await (called : Option Fetch)
  | function (isAsync : Bool)
deriving DecidableEq, Repr

/-- The addon that an expression fetches. -/
def Expr.fetch? : Expr → Option Fetch
  | .call (.member (.variable (.named scope)) field) [.string addon] =>
    if scope = "env" then
      if field = "getFilter" then some (.filter addon)
      else if field = "getExtension" then some (.extension addon)
      else none
    else none
  | _ => none

/-- The addon that an expression fetches and calls. -/
def Expr.called? : Expr → Option Fetch
  | .call (.member target _) _ | .call (.index target _) _ => target.fetch?
  | _ => none

/-- What an expression itself is, whatever its parts are. -/
def Expr.item? : Expr → Option Feature
  | .await promise => some (.await promise.called?)
  | .function isAsync _ _ => some (.function isAsync)
  | e => e.fetch?.map .fetch

theorem Expr.fetch?_eq_some_filter {e : Expr} {addon : String} :
    e.fetch? = some (.filter addon) ↔ e = getFilter addon := by
  constructor
  · intro h
    unfold fetch? at h
    split at h
    · split at h
      · split at h
        · cases h
          subst_vars
          rfl
        · split at h <;> cases h
      · cases h
    · cases h
  · rintro rfl
    rfl

theorem Expr.fetch?_eq_some_extension {e : Expr} {addon : String} :
    e.fetch? = some (.extension addon) ↔ e = getExtension addon := by
  constructor
  · intro h
    unfold fetch? at h
    split at h
    · split at h
      · split at h
        · cases h
        · split at h
          · cases h
            subst_vars
            rfl
          · cases h
      · cases h
    · cases h
  · rintro rfl
    rfl

theorem Expr.fetch?_method {target : Expr} {function : String} {args : List Expr}
    (hfilter : function ≠ "getFilter") (hextension : function ≠ "getExtension") :
    (method target function args).fetch? = none := by
  unfold method fetch?
  split
  · next heq =>
    cases heq
    simp [hfilter, hextension]
  · rfl

section Called

variable {target : Expr} {args : List Expr}

@[simp]
theorem Expr.fetch?_variable (v : Variable) : (Expr.variable v).fetch? = none := rfl

@[simp]
theorem Expr.fetch?_name (text : String) : (name text).fetch? = none := rfl

@[simp]
theorem Expr.fetch?_getFilter (addon : String) :
    (method (name "env") "getFilter" [.string addon]).fetch? = some (.filter addon) := rfl

@[simp]
theorem Expr.fetch?_getExtension (addon : String) :
    (method (name "env") "getExtension" [.string addon]).fetch? = some (.extension addon) := rfl

@[simp]
theorem Expr.called?_method (field : String) : (method target field args).called? = target.fetch? :=
  rfl

@[simp]
theorem Expr.called?_call_index (key : Expr) :
    (Expr.call (.index target key) args).called? = target.fetch? := rfl

@[simp]
theorem Expr.called?_call_paren (inner : Expr) : (Expr.call (.paren inner) args).called? = none :=
  rfl

@[simp]
theorem Expr.called?_call_method (field : String) (inner : List Expr) :
    (Expr.call (method target field inner) args).called? = none := rfl

end Called

/-- What is counted in some expressions, the parts of others among them. -/
def inventory (parts : List Expr) : Multiset Feature :=
  (parts.filterMap Expr.item? : List Feature)

@[simp]
theorem inventory_nil : inventory [] = 0 := rfl

@[simp]
theorem inventory_append (parts parts' : List Expr) :
    inventory (parts ++ parts') = inventory parts + inventory parts' := by
  rw [inventory, List.filterMap_append, ← Multiset.coe_add, inventory, inventory]

theorem inventory_cons (e : Expr) (parts : List Expr) :
    inventory (e :: parts) = (e.item?.toList : List Feature) + inventory parts := by
  cases hitem : e.item? with
  | none => simp [inventory, hitem]
  | some item => simp [inventory, hitem]

theorem mem_inventory {item : Feature} {parts : List Expr} :
    item ∈ inventory parts ↔ ∃ e ∈ parts, e.item? = some item := by
  rw [inventory, Multiset.mem_coe, List.mem_filterMap]

/-- An expression that is nothing counted has what its parts have. -/
theorem inventory_cons_of_none {e : Expr} {parts : List Expr} (h : e.item? = none) :
    inventory (e :: parts) = inventory parts := by
  rw [inventory_cons, h]
  exact zero_add _

section Lists

@[simp]
theorem inventory_expressions_nil : inventory (Expr.partsAll []) = 0 := rfl

@[simp]
theorem inventory_expressions_cons (e : Expr) (es : List Expr) :
    inventory (Expr.partsAll (e :: es)) = inventory e.parts + inventory (Expr.partsAll es) :=
  inventory_append _ _

@[simp]
theorem inventory_entries_nil : inventory (Expr.partsEntries []) = 0 := rfl

@[simp]
theorem inventory_entries_cons (key value : Expr) (entries : List (Expr × Expr)) :
    inventory (Expr.partsEntries ((key, value) :: entries)) =
      inventory key.parts + (inventory value.parts + inventory (Expr.partsEntries entries)) := by
  rw [Expr.partsEntries, inventory_append, inventory_append]

@[simp]
theorem inventory_statements_nil : inventory (Stmt.partsAll []) = 0 := rfl

@[simp]
theorem inventory_statements_cons (s : Stmt) (body : List Stmt) :
    inventory (Stmt.partsAll (s :: body)) = inventory s.parts + inventory (Stmt.partsAll body) :=
  inventory_append _ _

/-- Statements without anything counted have an empty inventory together. -/
theorem inventory_statements_eq_zero {body : List Stmt}
    (h : ∀ s ∈ body, inventory s.parts = 0) : inventory (Stmt.partsAll body) = 0 := by
  induction body with
  | nil => rfl
  | cons s body ih =>
    obtain ⟨hs, hbody⟩ := List.forall_mem_cons.mp h
    rw [inventory_statements_cons, hs, ih hbody, add_zero]

end Lists

section Expressions

variable {target : Expr} {function : String} {args : List Expr}

@[simp]
theorem inventory_variable (v : Variable) : inventory (Expr.variable v).parts = 0 := rfl

@[simp]
theorem inventory_name (text : String) : inventory (name text).parts = 0 := rfl

@[simp]
theorem inventory_constant (text : String) : inventory (Expr.constant text).parts = 0 := rfl

@[simp]
theorem inventory_string (value : String) : inventory (Expr.string value).parts = 0 := rfl

@[simp]
theorem inventory_truth (value : Bool) : inventory (truth value).parts = 0 := rfl

@[simp]
theorem inventory_number (value : Nat) : inventory (number value).parts = 0 := rfl

@[simp]
theorem inventory_member (field : String) :
    inventory (Expr.member target field).parts = inventory target.parts :=
  inventory_cons_of_none rfl

@[simp]
theorem inventory_index (key : Expr) :
    inventory (Expr.index target key).parts = inventory target.parts + inventory key.parts := by
  rw [Expr.parts, inventory_cons_of_none rfl, inventory_append]

@[simp]
theorem inventory_paren (inner : Expr) :
    inventory (Expr.paren inner).parts = inventory inner.parts :=
  inventory_cons_of_none rfl

@[simp]
theorem inventory_array (items : List Expr) :
    inventory (Expr.array items).parts = inventory (Expr.partsAll items) :=
  inventory_cons_of_none rfl

@[simp]
theorem inventory_object (entries : List (Expr × Expr)) :
    inventory (Expr.object entries).parts = inventory (Expr.partsEntries entries) :=
  inventory_cons_of_none rfl

@[simp]
theorem inventory_operation (op : Operator) (left right : Expr) :
    inventory (Expr.operation op left right).parts =
      inventory left.parts + inventory right.parts := by
  rw [Expr.parts, inventory_cons_of_none rfl, inventory_append]

@[simp]
theorem inventory_signed (sign : Sign) (operand : Expr) :
    inventory (Expr.signed sign operand).parts = inventory operand.parts :=
  inventory_cons_of_none rfl

@[simp]
theorem inventory_conditional (cond yes no : Expr) :
    inventory (Expr.conditional cond yes no).parts =
      inventory cond.parts + (inventory yes.parts + inventory no.parts) := by
  rw [Expr.parts, inventory_cons_of_none rfl, inventory_append, inventory_append]

@[simp]
theorem inventory_create (constructor : Expr) (args : List Expr) :
    inventory (Expr.create constructor args).parts =
      inventory constructor.parts + inventory (Expr.partsAll args) := by
  rw [Expr.parts, inventory_cons_of_none rfl, inventory_append]

@[simp]
theorem inventory_assign (v : Variable) (value : Expr) :
    inventory (Expr.assign v value).parts = inventory value.parts :=
  inventory_cons_of_none rfl

@[simp]
theorem inventory_sequence (items : List Expr) :
    inventory (Expr.sequence items).parts = inventory (Expr.partsAll items) :=
  inventory_cons_of_none rfl

@[simp]
theorem inventory_ofNode (node : Node) (code : Expr) :
    inventory (Expr.ofNode node code).parts = inventory code.parts :=
  inventory_cons_of_none rfl

@[simp]
theorem inventory_await (promise : Expr) :
    inventory (Expr.await promise).parts = .await promise.called? ::ₘ inventory promise.parts :=
  inventory_cons _ _

@[simp]
theorem inventory_function (isAsync : Bool) (params : List Variable) (body : List Stmt) :
    inventory (Expr.function isAsync params body).parts =
      .function isAsync ::ₘ inventory (Stmt.partsAll body) :=
  inventory_cons _ _

@[simp]
theorem inventory_call_index (key : Expr) :
    inventory (Expr.call (.index target key) args).parts =
      inventory target.parts + inventory key.parts + inventory (Expr.partsAll args) := by
  rw [Expr.parts, inventory_cons_of_none rfl, inventory_append, inventory_index]

@[simp]
theorem inventory_call_paren (inner : Expr) :
    inventory (Expr.call (.paren inner) args).parts =
      inventory inner.parts + inventory (Expr.partsAll args) := by
  rw [Expr.parts, inventory_cons_of_none rfl, inventory_append, inventory_paren]

@[simp]
theorem inventory_call_method (inner : List Expr) :
    inventory (Expr.call (method target function inner) args).parts =
      inventory (method target function inner).parts + inventory (Expr.partsAll args) := by
  rw [Expr.parts, inventory_cons_of_none rfl, inventory_append]

@[simp]
theorem inventory_method (hfilter : function ≠ "getFilter") (hextension : function ≠ "getExtension") :
    inventory (method target function args).parts =
      inventory target.parts + inventory (Expr.partsAll args) := by
  have hitem : (Expr.call (.member target function) args).item? = none := by
    change Option.map _ (method target function args).fetch? = none
    rw [Expr.fetch?_method hfilter hextension, Option.map_none]
  rw [method, Expr.parts, inventory_cons_of_none hitem, inventory_append, inventory_member]

@[simp]
theorem inventory_getFilter (addon : String) :
    inventory (method (name "env") "getFilter" [.string addon]).parts = {.fetch (.filter addon)} :=
  rfl

@[simp]
theorem inventory_getExtension (addon : String) :
    inventory (method (name "env") "getExtension" [.string addon]).parts =
      {.fetch (.extension addon)} :=
  rfl

@[simp]
theorem inventory_runtime (hfilter : function ≠ "getFilter")
    (hextension : function ≠ "getExtension") :
    inventory (runtime function args).parts = inventory (Expr.partsAll args) := by
  rw [runtime, inventory_method hfilter hextension, inventory_name, zero_add]

@[simp]
theorem inventory_literal (value : Literal) : inventory (literal value).parts = 0 := by
  cases value <;> rfl

@[simp]
theorem inventory_contextLookup (symbol : String) : inventory (contextLookup symbol).parts = 0 :=
  rfl

@[simp]
theorem inventory_hasOwn (object key : Expr) :
    inventory (hasOwn object key).parts = inventory object.parts + inventory key.parts := by
  simp (disch := decide) [hasOwn]

@[simp]
theorem inventory_renderArguments : inventory (Expr.partsAll renderArguments) = 0 := rfl

end Expressions

end Script

end TemplateManifest
